import TigerDuck.Push.ActivityRounds

/-!
# A register's statements

What a register's statements keep, up to its commit, and what others make of update tokens: once
its own token is upserted, a register holds every active token of its activity.
-/

namespace TigerDuck.Push

namespace Activities

open Relational Transition
open SyncJobs (MoodleId)

variable {cfg : Settings} {s s' : Activities} {r : RegisterId} {reg : Register}
  {request : RegisterRequest} {j : JobId} {job job' : PushJob} {k : TokenId} {t : TickId}

/-! ### Registers -/

theorem Undisturbed.of_locks {registers : Table RegisterId Register}
    {tokenLocks : RowLocks TokenId RegisterId} {jobLocks : RowLocks JobId Holder}
    (htokens : ∀ k, s.tokenLocks k = some r → tokenLocks k = some r)
    (hjobs : ∀ j, s.jobLocks j = some (.register r) → jobLocks j = some (.register r)) :
    Undisturbed r reg s { s with registers, tokenLocks, jobLocks } where
  tokenLocks := htokens
  scopes := fun _ token htoken => ⟨token, htoken, rfl⟩
  tokens := fun _ token htoken hprior => ⟨token, htoken, hprior, rfl⟩
  held := fun j _ hlock hjob => ⟨hjobs j hlock, hjob⟩
  holders := fun _ _ _ _ job hjob hholder =>
    .inl ⟨job, hjob, hholder, fun hyoung => hyoung.of_eq rfl htokens fun _ _ => id⟩

/-- A register that goes on, with what it has locked. -/
theorem Sound.setRegister (h : s.Sound) {tokenLocks : RowLocks TokenId RegisterId}
    {jobLocks : RowLocks JobId Holder}
    (hsame : ∀ old, s.registers.get r = some old → old.request = reg.request)
    (halone : ∀ r' reg', r' ≠ r → s.registers.get r' = some reg' →
      reg'.request.deviceId = reg.request.deviceId →
        reg'.request.activityId ≠ reg.request.activityId)
    (hkept : ∀ k r', r' ≠ r → s.tokenLocks k = some r' → tokenLocks k = some r')
    (hown : ∀ k r', tokenLocks k = some r' → s.tokenLocks k = some r' ∨
      r' = r ∧ ∃ token, s.tokens.get k = some token ∧ token.scopeKey = reg.request.activityId)
    (hjobs : ∀ j holder, holder ≠ .register r → s.jobLocks j = some holder →
      jobLocks j = some holder)
    (hsound : RegisterSound
      { s with registers := s.registers.set r reg, tokenLocks, jobLocks } r reg) :
    Sound { s with registers := s.registers.set r reg, tokenLocks, jobLocks } where
  jobs := h.jobs
  tokens := {
    below := h.tokens.below
    held := fun k r' hlock => by
      have hget : (s.registers.set r reg).get r = some reg := by rw [Table.get_set, if_pos rfl]
      rcases hown k r' hlock with hold | ⟨rfl, token, htoken, hscope⟩
      · obtain ⟨reg', token, hreg', htoken, hscope⟩ := h.tokens.held k r' hold
        by_cases hr : r' = r
        · subst hr
          exact ⟨reg, token, hget, htoken, by rw [← hsame reg' hreg', hscope]⟩
        · exact ⟨reg', token, by rw [Table.get_set, if_neg hr, hreg'], htoken, hscope⟩
      · exact ⟨reg, token, hget, htoken, hscope⟩ }
  rounds := fun t run hrun =>
    ⟨hjobs _ _ Holder.noConfusion (h.rounds t run hrun).1, (h.rounds t run hrun).2⟩
  alone := fun r₁ r₂ reg₁ reg₂ hreg₁ hreg₂ hdevice hactivity => by
    rw [Table.get_set] at hreg₁ hreg₂
    split at hreg₁
    next heq₁ =>
      split at hreg₂
      next heq₂ => rw [heq₁, heq₂]
      next hne₂ =>
        cases hreg₁
        exact absurd hactivity.symm (halone r₂ reg₂ hne₂ hreg₂ hdevice.symm)
    next hne₁ =>
      split at hreg₂
      next =>
        cases hreg₂
        exact absurd hactivity (halone r₁ reg₁ hne₁ hreg₁ hdevice)
      next => exact h.alone r₁ r₂ reg₁ reg₂ hreg₁ hreg₂ hdevice hactivity
  registers := fun r' reg' hreg' => by
    rw [Table.get_set] at hreg'
    split at hreg'
    next heq =>
      cases hreg'
      exact heq ▸ hsound
    next hne =>
      refine (h.registers r' reg' hreg').undisturbed (.of_locks (fun k => hkept k r' hne) ?_)
      exact fun j => hjobs j _ fun heq => hne (Holder.register.inj heq)

/-- The next statement of a request under way. -/
theorem Sound.advance (h : s.Sound) {next : Register} {tokenLocks : RowLocks TokenId RegisterId}
    {jobLocks : RowLocks JobId Holder} (hreg : s.registers.get r = some reg)
    (hrequest : next.request = reg.request)
    (hkept : ∀ k r', r' ≠ r → s.tokenLocks k = some r' → tokenLocks k = some r')
    (hown : ∀ k r', tokenLocks k = some r' → s.tokenLocks k = some r' ∨
      r' = r ∧ ∃ token, s.tokens.get k = some token ∧ token.scopeKey = reg.request.activityId)
    (hjobs : ∀ j holder, holder ≠ .register r → s.jobLocks j = some holder →
      jobLocks j = some holder)
    (hsound : RegisterSound
      { s with registers := s.registers.set r next, tokenLocks, jobLocks } r next) :
    Sound { s with registers := s.registers.set r next, tokenLocks, jobLocks } := by
  refine h.setRegister (fun old hold => ?_) (fun r' reg' hr hreg' hdevice hactivity => ?_) hkept
    (fun k r' hlock => ?_) hjobs hsound
  · obtain rfl := Option.some.inj (hold.symm.trans hreg)
    exact hrequest.symm
  · rw [hrequest] at hdevice hactivity
    exact hr (h.alone r' r reg' reg hreg' hreg hdevice hactivity)
  · rw [hrequest]
    exact hown k r' hlock

theorem Sound.beginRegister (h : s.Sound) (hnone : s.registers.get r = none)
    (halone : s.ofActivity request.deviceId request.activityId = []) :
    Sound (s.setRegister r ⟨request, .invalidating ((s.tokens.select fun _ token =>
      request.isPrior token && decide (token.tokenHash ≠ request.tokenHash)).map Prod.fst), false⟩) := by
  refine Sound.setRegister h (fun old hold => ?_) (fun r' reg' _ hreg' hdevice hactivity => ?_)
    (fun _ _ _ => id) (fun _ _ => .inl) (fun _ _ _ => id) ⟨?_, ?_, ?_, ?_⟩
  · rw [hnone] at hold
    cases hold
  · have hmem : (r', reg') ∈ s.ofActivity request.deviceId request.activityId :=
      (Table.mem_select_iff ..).mpr ⟨hreg', by simp [hdevice, hactivity]⟩
    rw [halone] at hmem
    cases hmem
  · intro old hstage k hk
    obtain rfl := Stage.invalidating.inj hstage
    obtain ⟨⟨k', token⟩, hmem, rfl⟩ := List.mem_map.mp hk
    obtain ⟨htoken, hpicked⟩ := (Table.mem_select_iff ..).mp hmem
    simp only [RegisterRequest.isPrior, Bool.and_eq_true, decide_eq_true_eq] at hpicked
    exact ⟨token, htoken, hpicked.1.2⟩
  · intro k token htoken hprior
    by_cases hhash : token.tokenHash = request.tokenHash
    · exact .inl hhash
    · refine .inr (.inl (List.mem_map.mpr ⟨(k, token), ?_, rfl⟩))
      exact (Table.mem_select_iff ..).mpr ⟨htoken, by simp [hprior, hhash]⟩
  · exact fun _ _ hstage => Stage.noConfusion hstage
  · exact fun _ _ hstage => Stage.noConfusion hstage

/-- A prior token is locked and invalidated. -/
theorem Sound.invalidate (h : s.Sound) (hreg : s.registers.get r = some reg) {old : List TokenId}
    (hstage : reg.stage = .invalidating (k :: old)) (hfree : s.tokenLocks.Available r k) :
    Sound { s.setRegister r { reg with stage := .invalidating old } with
      tokenLocks := s.tokenLocks.lock r k } := by
  have hsound := h.registers r reg hreg
  obtain ⟨token, htoken, hscope⟩ := hsound.prior _ hstage k List.mem_cons_self
  refine Sound.advance h hreg rfl (fun k' r' _ hlock => RowLocks.lock_of_held hlock hfree)
    (fun k' r' hlock => ?_) (fun _ _ _ => id) ⟨?_, ?_, ?_, ?_⟩
  · rcases update_cases hlock with ⟨rfl, heq⟩ | ⟨-, hold⟩
    · exact .inr ⟨(Option.some.inj heq).symm, token, htoken, hscope⟩
    · exact .inl hold
  · intro old' hstage' k' hk'
    obtain rfl := Stage.invalidating.inj hstage'
    exact hsound.prior _ hstage k' (List.mem_cons_of_mem _ hk')
  · intro k' token' htoken' hprior'
    have hcovers := hsound.tokens k' token' htoken' hprior'
    unfold Covers at hcovers ⊢
    rw [hstage] at hcovers
    dsimp only at hcovers ⊢
    rcases hcovers with hhash | hmem | hlock
    · exact .inl hhash
    · rcases List.mem_cons.mp hmem with rfl | hrest
      · exact .inr (.inr RowLocks.lock_self)
      · exact .inr (.inl hrest)
    · exact .inr (.inr (RowLocks.lock_of_held hlock hfree))
  · exact fun _ _ hstage => Stage.noConfusion hstage
  · exact fun _ _ hstage => Stage.noConfusion hstage

/-- From here on the register holds every active token of the activity. -/
theorem Sound.upsertToken (h : s.Sound) (hreg : s.registers.get r = some reg)
    (hstage : reg.stage = .invalidating [])
    (hfree : (s.conflicting reg.request).all (fun k => decide (s.tokenLocks.Available r k)) = true) :
    Sound { s.setRegister r { reg with
          stage := .upserted, inserted := (s.conflicting reg.request).isEmpty } with
      tokenLocks := fun k =>
        if (s.conflicting reg.request).contains k then some r else s.tokenLocks k } := by
  refine Sound.advance h hreg rfl (fun k r' hr hlock => ?_) (fun k r' hlock => ?_)
    (fun _ _ _ => id) ⟨?_, ?_, ?_, ?_⟩
  · split
    next hmem =>
      -- It waited for the row of another request.
      rcases of_decide_eq_true (List.all_eq_true.mp hfree k (List.contains_iff_mem.mp hmem)) with
        hnone | hown
      · rw [hlock] at hnone
        cases hnone
      · exact absurd (Option.some.inj (hlock.symm.trans hown)) hr
    next => exact hlock
  · split at hlock
    next hmem =>
      obtain ⟨⟨k', token⟩, hselected, rfl⟩ := List.mem_map.mp (List.contains_iff_mem.mp hmem)
      obtain ⟨htoken, hconflicts⟩ := (Table.mem_select_iff ..).mp hselected
      simp only [RegisterRequest.conflicts, Bool.and_eq_true, decide_eq_true_eq] at hconflicts
      exact .inr ⟨(Option.some.inj hlock).symm, token, htoken, hconflicts.2⟩
    next => exact .inl hlock
  · exact fun _ hstage => Stage.noConfusion hstage
  · intro k token htoken hprior
    have hcovers := (h.registers r reg hreg).tokens k token htoken hprior
    rw [Covers, hstage] at hcovers
    dsimp only at hcovers
    change (if (s.conflicting reg.request).contains k then some r else s.tokenLocks k) = some r
    split
    next => rfl
    next hother =>
      rcases hcovers with hhash | hnil | hlock
      · refine absurd (List.contains_iff_mem.mpr (List.mem_map.mpr ⟨(k, token), ?_, rfl⟩)) hother
        simp only [RegisterRequest.isPrior, Bool.and_eq_true, decide_eq_true_eq] at hprior
        refine (Table.mem_select_iff ..).mpr ⟨htoken, ?_⟩
        simp [RegisterRequest.conflicts, hprior.1.1, hprior.2, hhash]
      · cases hnil
      · exact hlock
  · exact fun _ _ hstage => Stage.noConfusion hstage
  · exact fun _ _ hstage => Stage.noConfusion hstage

/-- The query of `_retire_finished_end_job` sees every job that holds the key. -/
theorem Sound.selectHolders (h : s.Sound) (hreg : s.registers.get r = some reg)
    (hstage : reg.stage = .upserted) :
    Sound (s.setRegister r { reg with
      stage := .retiring ((s.db.jobs.select fun _ job => reg.request.isHolder job).map Prod.fst) [] }) := by
  refine Sound.advance h hreg rfl (fun _ _ _ => id) (fun _ _ => .inl) (fun _ _ _ => id)
    ⟨?_, ?_, ?_, ?_⟩
  · exact fun _ hstage => Stage.noConfusion hstage
  · intro k token htoken hprior
    have hcovers := (h.registers r reg hreg).tokens k token htoken hprior
    rwa [Covers, hstage] at hcovers
  · intro todo held hstage' j hj
    obtain ⟨-, rfl⟩ := Stage.retiring.inj hstage'
    cases hj
  · intro todo held hstage' j job hjob hholder
    obtain ⟨rfl, -⟩ := Stage.retiring.inj hstage'
    refine .inl (List.mem_map.mpr ⟨(j, job), ?_, rfl⟩)
    exact (Table.mem_select_iff ..).mpr ⟨hjob, hholder⟩

/-- The next of its rows: the register holds it, or it no longer holds the key. -/
theorem Sound.lockHolder (h : s.Sound) (hreg : s.registers.get r = some reg) {todo held : List JobId}
    (hstage : reg.stage = .retiring (j :: todo) held)
    (hfree : s.jobLocks.Available (.register r) j) (hjob : s.db.jobs.get j = some job)
    (hholder : reg.request.isHolder job = true) :
    Sound { s.setRegister r { reg with stage := .retiring todo (j :: held) } with
      jobLocks := s.jobLocks.lock (.register r) j } := by
  have hsound := h.registers r reg hreg
  refine Sound.advance h hreg rfl (fun _ _ _ => id) (fun _ _ => .inl)
    (fun j' holder _ hlock => RowLocks.lock_of_held hlock hfree) ⟨?_, ?_, ?_, ?_⟩
  · exact fun _ hstage => Stage.noConfusion hstage
  · intro k token htoken hprior
    have hcovers := hsound.tokens k token htoken hprior
    rwa [Covers, hstage] at hcovers
  · intro todo' held' hstage' j' hj'
    obtain ⟨rfl, rfl⟩ := Stage.retiring.inj hstage'
    rcases List.mem_cons.mp hj' with rfl | hold
    · exact ⟨RowLocks.lock_self, job, hjob, hholder⟩
    · obtain ⟨hlock, hrow⟩ := hsound.held _ held hstage j' hold
      exact ⟨RowLocks.lock_of_held hlock hfree, hrow⟩
  · intro todo' held' hstage' j' job' hjob' hholder'
    obtain ⟨rfl, rfl⟩ := Stage.retiring.inj hstage'
    rcases hsound.holders _ held hstage j' job' hjob' hholder' with hmem | hmem | hyoung
    · rcases List.mem_cons.mp hmem with rfl | hrest
      · exact .inr (.inl List.mem_cons_self)
      · exact .inl hrest
    · exact .inr (.inl (List.mem_cons_of_mem _ hmem))
    · exact .inr (.inr { hyoung with })

theorem Sound.passHolder (h : s.Sound) (hreg : s.registers.get r = some reg) {todo held : List JobId}
    (hstage : reg.stage = .retiring (j :: todo) held)
    (hgone : (s.db.jobs.get j).any reg.request.isHolder = false) :
    Sound (s.setRegister r { reg with stage := .retiring todo held }) := by
  have hsound := h.registers r reg hreg
  refine Sound.advance h hreg rfl (fun _ _ _ => id) (fun _ _ => .inl) (fun _ _ _ => id)
    ⟨?_, ?_, ?_, ?_⟩
  · exact fun _ hstage => Stage.noConfusion hstage
  · intro k token htoken hprior
    have hcovers := hsound.tokens k token htoken hprior
    rwa [Covers, hstage] at hcovers
  · intro todo' held' hstage' j' hj'
    obtain ⟨rfl, rfl⟩ := Stage.retiring.inj hstage'
    exact hsound.held _ held hstage j' hj'
  · intro todo' held' hstage' j' job' hjob' hholder'
    obtain ⟨rfl, rfl⟩ := Stage.retiring.inj hstage'
    rcases hsound.holders _ held hstage j' job' hjob' hholder' with hmem | hmem | hyoung
    · rcases List.mem_cons.mp hmem with rfl | hrest
      · have hjob : s.db.jobs.get j' = some job' := hjob'
        rw [hjob, Option.any_some, hholder'] at hgone
        cases hgone
      · exact .inl hrest
    · exact .inr (.inl hmem)
    · exact .inr (.inr { hyoung with })

/-- A register that ends, with what it has made of the jobs and tokens. -/
theorem Sound.finish (h : s.Sound) {db : Db} {tokens : Table TokenId UpdateToken}
    {nextToken : TokenId} (hjobs : EndKeys db)
    (hbelow : ∀ k, tokens.get k ≠ none → k < nextToken)
    (hscopes : ∀ k token, s.tokens.get k = some token →
      ∃ token', tokens.get k = some token' ∧ token'.scopeKey = token.scopeKey)
    (hheld : ∀ j holder job, holder ≠ .register r → s.jobLocks j = some holder →
      s.db.jobs.get j = some job → db.jobs.get j = some job)
    (hprior : ∀ r' reg', r' ≠ r → s.registers.get r' = some reg' → ∀ k token',
      tokens.get k = some token' → reg'.request.isPrior token' = true →
        ∃ token, s.tokens.get k = some token ∧ reg'.request.isPrior token = true ∧
          token'.tokenHash = token.tokenHash)
    (hholders : ∀ r' reg', r' ≠ r → s.registers.get r' = some reg' → ∀ j job,
      db.jobs.get j = some job → reg'.request.isHolder job = true → s.db.jobs.get j = some job) :
    Sound ({ s with db, tokens, nextToken }.endRegister r) := by
  have hregister {r' : RegisterId} {reg' : Register}
      (hreg' : (s.registers.deleteWhere fun r' _ => r' = r).get r' = some reg') :
      r' ≠ r ∧ s.registers.get r' = some reg' := by
    rw [Table.get_deleteWhere] at hreg'
    obtain ⟨hreg', hother⟩ := Option.filter_eq_some_iff.mp hreg'
    exact ⟨by simpa using hother, hreg'⟩
  refine {
    jobs := hjobs
    tokens := ⟨hbelow, fun k r' hlock => ?_⟩
    rounds := fun t run hrun => ?_
    alone := fun r₁ r₂ reg₁ reg₂ hreg₁ hreg₂ =>
      h.alone r₁ r₂ reg₁ reg₂ (hregister hreg₁).2 (hregister hreg₂).2
    registers := fun r' reg' hreg' => ?_ }
  · have hne : r' ≠ r := fun heq => RowLocks.release_ne (heq ▸ hlock)
    obtain ⟨reg', token, hreg', htoken, hscope⟩ := h.tokens.held k r' (RowLocks.held_of_release hlock)
    obtain ⟨token', htoken', hsame⟩ := hscopes k token htoken
    refine ⟨reg', token', ?_, htoken', hsame.trans hscope⟩
    change (s.registers.deleteWhere fun r' _ => r' = r).get r' = some reg'
    rw [Table.get_deleteWhere, hreg']
    simp [hne]
  · obtain ⟨hlock, hsome⟩ := h.rounds t run hrun
    obtain ⟨job, hjob⟩ := Option.isSome_iff_exists.mp hsome
    refine ⟨RowLocks.release_of_held hlock Holder.noConfusion, ?_⟩
    exact Option.isSome_iff_exists.mpr ⟨job, hheld _ _ job Holder.noConfusion hlock hjob⟩
  · obtain ⟨hne, hreg⟩ := hregister hreg'
    have hkept : ∀ k, s.tokenLocks k = some r' → s.tokenLocks.release r k = some r' :=
      fun k hlock => RowLocks.release_of_held hlock hne
    refine (h.registers r' reg' hreg).undisturbed ⟨hkept, hscopes, hprior r' reg' hne hreg,
      fun j job hlock hjob => ?_, fun todo held hstage j job hjob hholder => ?_⟩
    · have hother : Holder.register r' ≠ .register r := fun heq => hne (Holder.register.inj heq)
      exact ⟨RowLocks.release_of_held hlock hother, hheld j _ job hother hlock hjob⟩
    · exact .inl ⟨job, hholders r' reg' hne hreg j job hjob hholder, hholder,
        fun hyoung => hyoung.of_eq rfl hkept fun _ _ => id⟩

theorem Sound.rollback (h : s.Sound) (r : RegisterId) : Sound (s.endRegister r) :=
  h.finish h.jobs h.tokens.below (fun _ token htoken => ⟨token, htoken, rfl⟩)
    (fun _ _ _ _ _ => id) (fun _ _ _ _ _ token htoken hprior => ⟨token, htoken, hprior, rfl⟩)
    (fun _ _ _ _ _ _ hjob _ => hjob)

/-! ### What is committed of tokens -/

/-- Tokens rewritten, with a new one or without. -/
structure Written (s : Activities) (f : TokenId → UpdateToken → UpdateToken) (new : UpdateToken)
    (tokens : Table TokenId UpdateToken) (nextToken : TokenId) : Prop where
  scope : ∀ k token, (f k token).scopeKey = token.scopeKey
  rows : tokens = s.tokens.modify f ∧ nextToken = s.nextToken ∨
    tokens = (s.tokens.modify f).set s.nextToken new ∧ nextToken = s.nextToken + 1

namespace Written

variable {f : TokenId → UpdateToken → UpdateToken} {new : UpdateToken}
  {tokens : Table TokenId UpdateToken} {nextToken : TokenId}

theorem below (hwritten : s.Written f new tokens nextToken) (h : s.TokensSound) :
    ∀ k, tokens.get k ≠ none → k < nextToken := by
  have hold : ∀ k, (s.tokens.modify f).get k ≠ none → k < s.nextToken :=
    (h.modify hwritten.scope).below
  intro k hsome
  rcases hwritten.rows with ⟨rfl, rfl⟩ | ⟨rfl, rfl⟩
  · exact hold k hsome
  · rw [Table.get_set] at hsome
    split at hsome
    next hlast => exact hlast ▸ Nat.lt_succ_self _
    next => exact Nat.lt_succ_of_lt (hold k hsome)

/-- No row is written over by the new one. -/
theorem scopes (hwritten : s.Written f new tokens nextToken) (h : s.TokensSound) (k : TokenId)
    (token : UpdateToken) (htoken : s.tokens.get k = some token) :
    ∃ token', tokens.get k = some token' ∧ token'.scopeKey = token.scopeKey := by
  obtain ⟨token', htoken', hscope⟩ := Undisturbed.scopes_modify hwritten.scope k token htoken
  refine ⟨token', ?_, hscope⟩
  rcases hwritten.rows with ⟨rfl, -⟩ | ⟨rfl, -⟩
  · exact htoken'
  · have hlt : k < s.nextToken := h.below k (by rw [htoken]; exact Option.some_ne_none token)
    rw [Table.get_set, if_neg (Nat.ne_of_lt hlt), htoken']

theorem prior (hwritten : s.Written f new tokens nextToken)
    (hf : ∀ k token, s.tokens.get k = some token → request.isPrior (f k token) = true →
      request.isPrior token = true ∧ (f k token).tokenHash = token.tokenHash)
    (hnew : request.isPrior new = false) (k : TokenId) (token' : UpdateToken)
    (htoken' : tokens.get k = some token') (hprior : request.isPrior token' = true) :
    ∃ token, s.tokens.get k = some token ∧ request.isPrior token = true ∧
      token'.tokenHash = token.tokenHash := by
  have hold (htoken' : (s.tokens.modify f).get k = some token') :
      ∃ token, s.tokens.get k = some token ∧ request.isPrior token = true ∧
        token'.tokenHash = token.tokenHash := by
    rw [Table.get_modify] at htoken'
    obtain ⟨token, htoken, rfl⟩ := Option.map_eq_some_iff.mp htoken'
    exact ⟨token, htoken, hf k token htoken hprior⟩
  rcases hwritten.rows with ⟨rfl, -⟩ | ⟨rfl, -⟩
  · exact hold htoken'
  · rw [Table.get_set] at htoken'
    split at htoken'
    next =>
      obtain rfl := Option.some.inj htoken'
      rw [hnew] at hprior
      cases hprior
    next => exact hold htoken'

end Written

/-- Whoever else writes tokens makes none active for a register's activity. -/
theorem Sound.writeTokens (h : s.Sound) {f : TokenId → UpdateToken → UpdateToken}
    {new : UpdateToken} {tokens : Table TokenId UpdateToken} {nextToken : TokenId}
    (hwritten : s.Written f new tokens nextToken)
    (hf : ∀ r reg, s.registers.get r = some reg → ∀ k token, s.tokens.get k = some token →
      reg.request.isPrior (f k token) = true →
        reg.request.isPrior token = true ∧ (f k token).tokenHash = token.tokenHash)
    (hnew : ∀ r reg, s.registers.get r = some reg → reg.request.isPrior new = false) :
    Sound { s with tokens, nextToken } :=
  { h with
    tokens := ⟨hwritten.below h.tokens, fun k r hlock => by
      obtain ⟨reg, token, hreg, htoken, hscope⟩ := h.tokens.held k r hlock
      obtain ⟨token', htoken', hsame⟩ := hwritten.scopes h.tokens k token htoken
      exact ⟨reg, token', hreg, htoken', hsame.trans hscope⟩⟩
    registers := fun r reg hreg => (h.registers r reg hreg).undisturbed {
      tokenLocks := fun _ => id
      scopes := hwritten.scopes h.tokens
      tokens := hwritten.prior (hf r reg hreg) (hnew r reg hreg)
      held := fun _ _ hlock hjob => ⟨hlock, hjob⟩
      holders := fun _ _ _ _ job hjob hholder =>
        .inl ⟨job, hjob, hholder, fun hyoung => { hyoung with }⟩ } }

theorem Sound.invalidateTokens (h : s.Sound) (p : TokenId → UpdateToken → Bool) :
    Sound (s.invalidateTokens p) := by
  have hwritten : s.Written
      (fun k token => if p k token then { token with active := false } else token)
      ⟨0, "", "", false⟩ (s.invalidateTokens p).tokens s.nextToken :=
    ⟨fun k token => by split <;> rfl, .inl ⟨rfl, rfl⟩⟩
  refine h.writeTokens hwritten (fun r reg _ k token _ hprior => ?_) fun _ _ _ => rfl
  split at hprior
  next => cases hprior
  next hkept =>
    rw [if_neg hkept]
    exact ⟨hprior, rfl⟩

theorem Sound.registerToken (h : s.Sound) {token : UpdateToken}
    (halone : s.ofActivity token.deviceId token.scopeKey = []) :
    Sound (s.upsertPushToken token) := by
  -- A register under way is of another activity.
  have hother (r : RegisterId) (reg : Register) (hreg : s.registers.get r = some reg)
      (hdevice : token.deviceId = reg.request.deviceId)
      (hactivity : token.scopeKey = reg.request.activityId) : False := by
    have hmem : (r, reg) ∈ s.ofActivity token.deviceId token.scopeKey :=
      (Table.mem_select_iff ..).mpr ⟨hreg, by simp [hdevice, hactivity]⟩
    rw [halone] at hmem
    cases hmem
  have hrow (k : TokenId) (other : UpdateToken) :
      (supersededRow token other).scopeKey = other.scopeKey := by
    unfold supersededRow
    split
    · split <;> rfl
    · rfl
  have hsound {tokens : Table TokenId UpdateToken} {nextToken : TokenId}
      (hwritten : s.Written (fun _ => supersededRow token) { token with active := true } tokens
        nextToken) : Sound { s with tokens, nextToken } := by
    refine h.writeTokens hwritten (fun r reg hreg k other _ hprior => ?_) fun r reg hreg => ?_
    · unfold supersededRow at hprior ⊢
      split at hprior
      next hsuperseded =>
        split at hprior
        next =>
          simp only [superseded, Bool.and_eq_true, decide_eq_true_eq] at hsuperseded
          simp only [RegisterRequest.isPrior, Bool.and_eq_true, decide_eq_true_eq] at hprior
          exact (hother r reg hreg hprior.1.2 (hsuperseded.1.2 ▸ hprior.2)).elim
        next => cases hprior
      next hkept =>
        rw [if_neg hkept]
        exact ⟨hprior, rfl⟩
    · refine Bool.eq_false_iff.mpr fun hprior => ?_
      simp only [RegisterRequest.isPrior, Bool.and_eq_true, decide_eq_true_eq] at hprior
      exact hother r reg hreg hprior.1.2 hprior.2
  unfold upsertPushToken
  dsimp only
  split
  · exact hsound ⟨hrow, .inr ⟨rfl, rfl⟩⟩
  · exact hsound ⟨hrow, .inl ⟨rfl, rfl⟩⟩

/-- A device that goes takes no job from a register past its token. -/
theorem Sound.deleteDevice (h : s.Sound) {deviceId : DeviceId}
    (hregistering : s.registering deviceId = false)
    (hspares : s.spares none (s.db.modifyJobs fun _ => Db.withoutDevice deviceId) = true) :
    Sound { s with db := s.db.modifyJobs fun _ => Db.withoutDevice deviceId } := by
  have hrow {j : JobId} {job : PushJob} (holder : Holder) (hlock : s.jobLocks j = some holder)
      (hjob : s.db.jobs.get j = some job) :
      (s.db.modifyJobs fun _ => Db.withoutDevice deviceId).jobs.get j = some job :=
    spares_row hspares hlock (Option.some_ne_none _) hjob
  refine { h with
    jobs := h.jobs.deleteDevice deviceId
    tokens := { h.tokens with }
    rounds := fun t run hrun => ?_
    registers := fun r reg hreg => (h.registers r reg hreg).undisturbed {
      tokenLocks := fun _ => id
      scopes := fun _ token htoken => ⟨token, htoken, rfl⟩
      tokens := fun _ token htoken hprior => ⟨token, htoken, hprior, rfl⟩
      held := fun j job hlock hjob => ⟨hlock, hrow _ hlock hjob⟩
      holders := fun todo held hstage j job' hjob' hholder' => ?_ } }
  · obtain ⟨hlock, hsome⟩ := h.rounds t run hrun
    obtain ⟨job, hjob⟩ := Option.isSome_iff_exists.mp hsome
    exact ⟨hlock, Option.isSome_iff_exists.mpr ⟨job, hrow _ hlock hjob⟩⟩
  · have hother : reg.request.deviceId ≠ deviceId := by
      intro heq
      rw [registering, Bool.not_eq_false', List.isEmpty_iff] at hregistering
      refine List.eq_nil_iff_forall_not_mem.mp hregistering (r, reg) ?_
      exact (Table.mem_select_iff ..).mpr ⟨hreg, by simp [heq, hstage]⟩
    rw [Db.modifyJobs, Table.get_modify] at hjob'
    obtain ⟨job, hjob, rfl⟩ := Option.map_eq_some_iff.mp hjob'
    refine .inl ⟨job, hjob, hholder', fun hyoung => ⟨hyoung.waiting, ?_, ?_, ?_, hyoung.found⟩⟩
    · rintro ⟨d', hd', hsent⟩
      obtain ⟨d, hd, rfl⟩ := List.mem_map.mp hd'
      exact hyoung.unsent ⟨d, hd, hsent⟩
    · rw [Db.withoutDevice, hyoung.device]
      simp [hother]
    · intro d' hd' k hk
      obtain ⟨d, hd, rfl⟩ := List.mem_map.mp hd'
      exact hyoung.deliveries d hd k hk

end Activities

end TigerDuck.Push
